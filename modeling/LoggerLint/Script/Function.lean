import LoggerLint.Script.Pattern

/-!
# Functions and classes

A function has parameters and a block; an arrow function may have an expression in place of the block.
A class has a body of methods, fields and static blocks. Decorators belong to the class, method or field
they stand in front of.
-/

namespace LoggerLint.Script

open Parse

/-! ## Functions -/

/-- A parameter. -/
def parameter (self : Reader) : Parse Node := do
  if (← peek).isMark "..." then restPattern self else bindingElement self

/-- The parameters of a function, in parentheses. -/
def formalParameters (self : Reader) : Parse Node := do
  let start ← here
  expect "("
  let parameters ← commaList ")" false (parameter self)
  close "formal_parameters" start parameters

/-- Is the next lexeme the keyword of a function that can follow `async` on its line? -/
def beginsFunction (lexeme : Lexeme) : Bool :=
  lexeme.isWord "function" && !lexeme.lineBreak

/-- A function from its keyword on; it starts at `start`. With `declared` it has to have a name. -/
def functionFrom (self : Reader) (start : Nat) (declared : Bool) : Parse Node := do
  expectWord "function"
  let generator ← accept "*"
  let name? ← identifier?
  if declared && name?.isNone then fail
  let parameters ← formalParameters self
  let body ← self .block
  let kind :=
    match declared, generator with
    | true, false => "function_declaration"
    | true, true => "generator_function_declaration"
    | false, false => "function_expression"
    | false, true => "generator_function"
  close kind start
    (fieldList "name" name? ++ [inField "parameters" parameters, inField "body" body])

/-- The rest of an arrow function that starts at `start` and has these parameters. -/
def arrowFrom (self : Reader) (start : Nat) (parameters : Node) : Parse Node := do
  expect "=>"
  let body ← if (← peek).isMark "\x7b" then self .block else self (.expression true)
  close "arrow_function" start [parameters, inField "body" body]

/-- A method from its parameters on. -/
def methodFrom (self : Reader) (start : Nat) (decorators : List Node) (name : Node) :
    Parse Node := do
  let parameters ← formalParameters self
  let body ← self .block
  close "method_definition" start
    (decorators ++ [inField "name" name, inField "parameters" parameters, inField "body" body])

/-- Take a word in front of a property's key, unless it is the key itself: the key is followed by one of
these marks. -/
def acceptModifier (word : String) (afterKey : List String) : Parse Bool := do
  let lexeme ← peek
  let following := peekAfter lexeme
  if lexeme.isWord word && !following.isOneOf afterKey && following.token != .finish then
    take lexeme
    return true
  else
    return false

/-- Take the words and the star in front of the name of a method. -/
def methodModifiers (afterKey : List String) : Parse Bool := do
  let asynchronous ← acceptModifier "async" afterKey
  if ← accept "*" then return true
  if ← acceptModifier "get" afterKey then return true
  if ← acceptModifier "set" afterKey then return true
  return asynchronous

/-! ## Accesses and calls -/

/-- An expression that spreads. -/
def spreadElement (self : Reader) : Parse Node := do
  let start ← here
  expect "..."
  let value ← self (.expression true)
  close "spread_element" start [value]

/-- An argument, or an element of an array. -/
def argument (self : Reader) : Parse Node := do
  if (← peek).isMark "..." then spreadElement self else self (.expression true)

/-- The arguments of a call, in parentheses. -/
def arguments (self : Reader) : Parse Node := do
  let start ← here
  expect "("
  let items ← commaList ")" true (argument self)
  close "arguments" start items

/-- The name of a member. -/
def memberName : Parse Node := do
  let lexeme ← peek
  match lexeme.token with
  | .word _ => leaf "property_identifier" lexeme
  | .privateName => leaf "private_property_identifier" lexeme
  | _ => fail

/-! ## Decorators -/

/-- A dotted name. -/
def dottedName : Parse Node := do
  let name ← identifier
  extend (fun object => do
    if ← accept "." then
      let property ← memberName
      return some (← close "member_expression" object.start
        [inField "object" object, inField "property" property])
    else
      return none) name

/-- A decorator. -/
def decorator (self : Reader) : Parse Node := do
  let start ← here
  expect "@"
  if (← peek).isMark "(" then
    let parameters ← arguments self
    close "decorator" start [ofKind "parenthesized_expression" parameters.label parameters.children]
  else
    let name ← dottedName
    if (← peek).isMark "(" then
      let items ← arguments self
      let call ← close "call_expression" name.start
        [inField "function" name, inField "arguments" items]
      close "decorator" start [call]
    else
      close "decorator" start [name]

/-- The decorators in front of something. -/
def decorators (self : Reader) : Parse (List Node) :=
  repeatStep (do
    if (← peek).isMark "@" then return some (inField "decorator" (← decorator self))
    else return none)

/-! ## Classes -/

/-- The marks behind the key of a member of a class. -/
def afterMemberKey : List String := ["(", "=", ";", "\x7d"]

/-- A static block, behind its keyword. -/
def staticBlock (self : Reader) (start : Nat) : Parse Node := do
  let body ← self .block
  close "class_static_block" start [inField "body" body]

/-- A method or a field, behind its decorators and `static`. -/
def classMemberFrom (self : Reader) (start : Nat) (decorated : List Node) : Parse Node := do
  let modified ← methodModifiers afterMemberKey
  let name ← propertyName self
  if (← peek).isMark "(" then
    let method ← methodFrom self start decorated name
    discard (accept ";")
    return method
  else if modified then
    fail
  else
    let value? ← if ← accept "=" then some <$> self (.expression true) else pure none
    let field ← close "field_definition" start
      (decorated ++ [inField "property" name] ++ fieldList "value" value?)
    semicolon value?.isNone
    return field

/-- A member of a class. -/
def classMember (self : Reader) : Parse Node := do
  let start ← here
  let decorated ← decorators self
  if ← acceptModifier "static" afterMemberKey then
    if (← peek).isMark "\x7b" then staticBlock self start
    else classMemberFrom self start decorated
  else
    classMemberFrom self start decorated

/-- The body of a class. -/
def classBody (self : Reader) : Parse Node := do
  let start ← here
  expect "\x7b"
  let members ← repeatStep (do
    skipMarkupComments
    if ← accept "\x7d" then return none
    if ← accept ";" then return some []
    return some [inField "member" (← classMember self)])
  close "class_body" start members.flatten

/-- A class from its keyword on; its decorators are read. With `declared` it has to have a name. -/
def classFrom (self : Reader) (start : Nat) (decorated : List Node) (declared : Bool) :
    Parse Node := do
  expectWord "class"
  let name? ← identifier?
  if declared && name?.isNone then fail
  let extending ← peek
  let heritage? ←
    if extending.isWord "extends" then do
      take extending
      let parent ← self .access
      pure [← close "class_heritage" extending.start [parent]]
    else
      pure []
  let body ← classBody self
  close (if declared then "class_declaration" else "class") start
    (decorated ++ fieldList "name" name? ++ heritage? ++ [inField "body" body])

end LoggerLint.Script
