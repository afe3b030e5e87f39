import LoggerLint.Script.Parse

/-!
# Patterns

A pattern declares names, or names the places that a destructuring assignment writes to. Where a pattern
is announced by a keyword it is read as one (`binding`). Where it is not, an object or an array is read
first, and turned into a pattern (`toPattern?`) once an equals sign, an arrow or the head of a loop tells
what it was.

An object read that way may hold a name with a default value. If it turns out to be no pattern after all
this is an error; `hasStrayDefault` finds what was left over.
-/

namespace LoggerLint.Script

open Parse

/-! ## Turning expressions into patterns -/

/-- The same node under another kind. -/
def ofKind (kind : String) (label : Label) (children : List Node) : Node :=
  ⟨{ label with kind }, children⟩

mutual

/-- The pattern that an expression spells. With `element` it stands inside another pattern or among
parameters, where it may have a default value or take the rest. -/
def toPattern? (element : Bool) : Node → Option Node
  | ⟨label, children⟩ =>
    match label.kind with
    | "identifier" | "undefined" | "member_expression" | "subscript_expression" | "object_pattern"
    | "array_pattern" => some ⟨label, children⟩
    | "object" => (membersToPatterns? children).map (ofKind "object_pattern" label)
    | "array" => (allToPatterns? true children).map (ofKind "array_pattern" label)
    | "assignment_expression" =>
      if element then some (ofKind "assignment_pattern" label children) else none
    | "spread_element" =>
      if element then (allToPatterns? false children).map (ofKind "rest_pattern" label) else none
    | "rest_pattern" => if element then some ⟨label, children⟩ else none
    | _ => none
termination_by structural node => node

/-- The patterns that expressions spell. -/
def allToPatterns? (element : Bool) : List Node → Option (List Node)
  | [] => some []
  | node :: rest => do
    let pattern ← toPattern? element node
    let patterns ← allToPatterns? element rest
    return pattern :: patterns
termination_by structural nodes => nodes

/-- The patterns that the members of an object spell. -/
def membersToPatterns? : List Node → Option (List Node)
  | [] => some []
  | ⟨label, children⟩ :: rest => do
    let pattern ←
      match label.kind with
      | "shorthand_property_identifier" =>
        some (ofKind "shorthand_property_identifier_pattern" label children)
      | "object_assignment_pattern" => some ⟨label, children⟩
      | "pair" => (valueToPattern? children).map (ofKind "pair_pattern" label)
      | "spread_element" => (allToPatterns? false children).map (ofKind "rest_pattern" label)
      | _ => none
    let patterns ← membersToPatterns? rest
    return pattern :: patterns
termination_by structural nodes => nodes

/-- The parts of a pair, with the pattern that its value spells. -/
def valueToPattern? : List Node → Option (List Node)
  | [] => some []
  | node :: rest => do
    let node ← if node.inField "value" then toPattern? true node else some node
    let nodes ← valueToPattern? rest
    return node :: nodes
termination_by structural nodes => nodes

end

mutual

/-- Is there an object at or below this node that is no pattern and yet gives a name a default value? -/
def hasStrayDefault : Node → Bool
  | ⟨label, children⟩ =>
    (label.kind == "object" && children.any (·.kind == "object_assignment_pattern")) ||
      anyHasStrayDefault children
termination_by structural node => node

/-- Is there such an object at or below one of these nodes? -/
def anyHasStrayDefault : List Node → Bool
  | [] => false
  | node :: rest => hasStrayDefault node || anyHasStrayDefault rest
termination_by structural nodes => nodes

end

/-- The pattern of an assignment's left side, which may also stand in parentheses. -/
def targetOf? (node : Node) : Option Node :=
  if node.kind == "parenthesized_expression" then some node else toPattern? false node

/-- Is this a place that an operator such as `+=` can change? -/
def isPlain (node : Node) : Bool :=
  ["identifier", "undefined", "member_expression", "subscript_expression",
   "parenthesized_expression"].contains node.kind

/-! ## Names and keys -/

/-- A name that is declared. -/
def identifier : Parse Node := do
  let lexeme ← peek
  if lexeme.isName then leaf "identifier" lexeme else fail

/-- A name that is declared, if one stands here. -/
def identifier? : Parse (Option Node) := do
  let lexeme ← peek
  if lexeme.isName then some <$> leaf "identifier" lexeme else return none

/-- The key of a property. -/
def propertyName (self : Reader) : Parse Node := do
  let lexeme ← peek
  match lexeme.token with
  | .word _ => leaf "property_identifier" lexeme
  | .privateName => leaf "private_property_identifier" lexeme
  | .string => leaf "string" lexeme
  | .number => leaf "number" lexeme
  | .mark "[" =>
    take lexeme
    let key ← self (.expression true)
    expect "]"
    close "computed_property_name" lexeme.start [key]
  | _ => fail

/-! ## Patterns that are announced -/

/-- A pattern inside another pattern or among parameters; `undefined` binds nothing there. -/
def innerBinding (self : Reader) : Parse Node := do
  let lexeme ← peek
  if lexeme.isWord "undefined" then leaf "undefined" lexeme else self .binding

/-- A pattern, and its default value if it has one. -/
def bindingElement (self : Reader) : Parse Node := do
  let start ← here
  let left ← innerBinding self
  if ← accept "=" then
    let right ← self (.expression true)
    close "assignment_pattern" start [inField "left" left, inField "right" right]
  else
    return left

/-- A pattern that takes the rest. -/
def restPattern (self : Reader) : Parse Node := do
  let start ← here
  expect "..."
  let pattern ← innerBinding self
  close "rest_pattern" start [pattern]

/-- A member of an object pattern. -/
def patternMember (self : Reader) : Parse Node := do
  let lexeme ← peek
  if lexeme.isMark "..." then restPattern self
  else
    let key ← propertyName self
    if ← accept ":" then
      let value ← bindingElement self
      close "pair_pattern" lexeme.start [inField "key" key, inField "value" value]
    else if lexeme.isName then
      let name := ofKind "shorthand_property_identifier_pattern" key.label []
      if ← accept "=" then
        let right ← self (.expression true)
        close "object_assignment_pattern" lexeme.start [inField "left" name, inField "right" right]
      else
        return name
    else
      fail

/-- An element of an array pattern. -/
def patternElement (self : Reader) : Parse Node := do
  if (← peek).isMark "..." then restPattern self else bindingElement self

/-- A name or a pattern that is declared. -/
def binding (self : Reader) : Parse Node := do
  let lexeme ← peek
  match lexeme.token with
  | .mark "\x7b" =>
    take lexeme
    let members ← commaList "\x7d" true (patternMember self)
    close "object_pattern" lexeme.start members
  | .mark "[" =>
    take lexeme
    let elements ← commaList "]" true (patternElement self)
    close "array_pattern" lexeme.start elements
  | _ => identifier

end LoggerLint.Script
