import LoggerLint.Script.Function

/-!
# Expressions

Operands, accesses and calls bind tightest; then come the operators in front of an operand, the operators
between two, the conditional, and assignments and arrow functions. The operators between two operands are
read with a stack of those whose right side is still open.
-/

namespace LoggerLint.Script

open Parse

/-! ## Templates and regular expressions -/

/-- Move to a place ahead. -/
def jump (place : Place) : Parse Unit :=
  modify fun cursor => { cursor with place }

/-- A template, whose opening backtick is this lexeme. -/
def template (self : Reader) (lexeme : Lexeme) : Parse Node := do
  take lexeme
  let substitutions ← repeatStep (do
    let place := (← get).place
    match skipTemplate? place.offset place.rest with
    | none => fail
    | some (after, .close) =>
      jump after
      return none
    | some (after, .substitution) =>
      jump after
      let value ← self (.expressions true)
      expect "\x7d"
      return some (← close "template_substitution" (after.offset - 2) [value]))
  close "template_string" lexeme.start substitutions

/-- A regular expression, whose opening slash is this lexeme. -/
def regex (lexeme : Lexeme) : Parse Node := do
  match skipRegex? false (lexeme.start + 1) (lexeme.chars.drop 1) with
  | none => fail
  | some after =>
    moveTo lexeme (skipWhile (fun c => 'a' ≤ c && c ≤ 'z') after.offset after.rest)
    close "regex" lexeme.start []

/-! ## Objects and arrays -/

/-- The marks behind the key of a member of an object. -/
def afterObjectKey : List String := ["(", ":", ",", "=", "\x7d"]

/-- A member of an object. -/
def objectMember (self : Reader) : Parse Node := do
  let lexeme ← peek
  if lexeme.isMark "..." then spreadElement self
  else
    let modified ← methodModifiers afterObjectKey
    let name ← propertyName self
    if (← peek).isMark "(" then methodFrom self lexeme.start [] name
    else if modified then fail
    else if ← accept ":" then
      let value ← self (.expression true)
      close "pair" lexeme.start [inField "key" name, inField "value" value]
    else if lexeme.isName then
      if ← accept "=" then
        let left := ofKind "shorthand_property_identifier_pattern" name.label []
        let right ← self (.expression true)
        close "object_assignment_pattern" lexeme.start [inField "left" left, inField "right" right]
      else
        return ofKind "shorthand_property_identifier" name.label []
    else
      fail

/-- An object, whose opening brace is this lexeme. -/
def object (self : Reader) (lexeme : Lexeme) : Parse Node := do
  take lexeme
  let members ← commaList "\x7d" true (objectMember self)
  close "object" lexeme.start members

/-- An array, whose opening bracket is this lexeme. -/
def array (self : Reader) (lexeme : Lexeme) : Parse Node := do
  take lexeme
  let elements ← commaList "]" true (argument self)
  close "array" lexeme.start elements

/-! ## Parentheses and arrows -/

/-- The arrow function whose parameters were read as the expressions in this node. -/
def arrowFromList (self : Reader) (start : Nat) (list : Node) : Parse Node := do
  match allToPatterns? true list.children with
  | none => fail
  | some parameters =>
    let node := ofKind "formal_parameters" list.label parameters
    arrowFrom self start (inField "parameters" node)

/-- The expressions of a list with commas as one expression. -/
def sequence (first : Node) (rest : List Node) : Node :=
  match rest.getLast? with
  | none => first
  | some last =>
    ⟨{ kind := "sequence_expression", start := first.start, stop := last.stop }, first :: rest⟩

/-- What stands in parentheses: expressions, or the parameters of an arrow function. -/
def parenthesized (self : Reader) (lexeme : Lexeme) : Parse Node := do
  take lexeme
  let items ← repeatStep (do
    skipMarkupComments
    if ← accept ")" then return none
    let node ← if (← peek).isMark "..." then restPattern self else self (.expression true)
    if ← accept "," then return some (node, true)
    unless (← peek).isMark ")" do fail
    return some (node, false))
  let list ← close "formal_parameters" lexeme.start (items.map (·.1))
  if (← peek).isMark "=>" then arrowFromList self lexeme.start list
  else
    let openEnded := items.getLast?.all (·.2) || items.any (·.1.kind == "rest_pattern")
    match list.children, openEnded with
    | first :: rest, false => close "parenthesized_expression" lexeme.start [sequence first rest]
    | _, _ => fail

/-- A name, or an arrow function with this name as its only parameter. -/
def nameOrArrow (self : Reader) (lexeme : Lexeme) : Parse Node := do
  let name ← leaf "identifier" lexeme
  if (← peek).isMark "=>" then arrowFrom self lexeme.start (inField "parameter" name)
  else return name

/-- What the word `async` begins: a function, an arrow function, a call, or just a name. -/
def asyncOperand (self : Reader) (lexeme : Lexeme) : Parse Node := do
  let following := peekAfter lexeme
  if beginsFunction following then
    take lexeme
    functionFrom self lexeme.start false
  else if following.isName && !following.lineBreak && (peekAfter following).isMark "=>" then
    take lexeme
    let name ← leaf "identifier" following
    arrowFrom self lexeme.start (inField "parameter" name)
  else if following.isMark "(" then
    let name ← leaf "identifier" lexeme
    let items ← arguments self
    if (← peek).isMark "=>" then arrowFromList self lexeme.start items
    else close "call_expression" lexeme.start [inField "function" name, inField "arguments" items]
  else
    nameOrArrow self lexeme

/-! ## Operands -/

/-- What the word `import` begins in an expression. -/
def importOperand (lexeme : Lexeme) : Parse Node := do
  let node ← leaf "import" lexeme
  if ← accept "." then
    expectWord "meta"
    close "meta_property" lexeme.start []
  else if (← peek).isMark "(" then
    return node
  else
    fail

/-- The words that are operands of their own kind. -/
def operandWords : List String := ["this", "super", "null", "true", "false", "undefined"]

/-- An operand that begins with a word. -/
def wordOperand (self : Reader) (lexeme : Lexeme) (word : String) : Parse Node :=
  if word == "function" then functionFrom self lexeme.start false
  else if word == "async" then asyncOperand self lexeme
  else if word == "class" then classFrom self lexeme.start [] false
  else if word == "new" then self .construction
  else if word == "import" then importOperand lexeme
  else if operandWords.contains word then leaf word lexeme
  else if isReserved word then fail
  else nameOrArrow self lexeme

/-- An operand without the accesses behind it. -/
def operand (self : Reader) : Parse Node := do
  skipMarkupComments
  let lexeme ← peek
  match lexeme.token with
  | .word word => wordOperand self lexeme word
  | .number => leaf "number" lexeme
  | .string => leaf "string" lexeme
  | .privateName =>
    if (peekAfter lexeme).isWord "in" then leaf "private_property_identifier" lexeme else fail
  | .mark mark =>
    match mark with
    | "(" => parenthesized self lexeme
    | "[" => array self lexeme
    | "\x7b" => object self lexeme
    | "\x60" => template self lexeme
    | "/" | "/=" => regex lexeme
    | "<" => self .markup
    | "@" =>
      let decorated ← decorators self
      classFrom self lexeme.start decorated false
    | _ => fail
  | .finish | .unreadable => fail

/-! ## Accesses and calls -/

/-- An access to a member behind its dot, or behind this mark of an optional access. -/
def memberOf (object : Node) (optional : List Node) : Parse Node := do
  let property ← memberName
  close "member_expression" object.start
    ([inField "object" object] ++ optional ++ [inField "property" property])

/-- An access by index. -/
def elementOf (self : Reader) (object : Node) (optional : List Node) : Parse Node := do
  expect "["
  let index ← self (.expressions true)
  expect "]"
  close "subscript_expression" object.start
    ([inField "object" object] ++ optional ++ [inField "index" index])

/-- A call. -/
def callOf (self : Reader) (function : Node) (optional : List Node) : Parse Node := do
  let items ← arguments self
  close "call_expression" function.start
    ([inField "function" function] ++ optional ++ [inField "arguments" items])

/-- One access or call behind an expression. With `calls` unset only accesses and templates count. -/
def accessStep (self : Reader) (calls : Bool) (object : Node) : Parse (Option Node) := do
  let lexeme ← peek
  match lexeme.token with
  | .mark mark =>
    match mark with
    | "." =>
      take lexeme
      some <$> memberOf object []
    | "[" => some <$> elementOf self object []
    | "(" => if calls then some <$> callOf self object [] else return none
    | "\x60" =>
      let text ← template self lexeme
      some <$> close "call_expression" object.start
        [inField "function" object, inField "arguments" text]
    | "?." =>
      if calls then
        let chain := [inField "optional_chain" (← leaf "optional_chain" lexeme)]
        let following ← peek
        if following.isMark "(" then some <$> callOf self object chain
        else if following.isMark "[" then some <$> elementOf self object chain
        else some <$> memberOf object chain
      else
        return none
    | _ => return none
  | _ => return none

/-- An operand with the accesses and calls behind it. -/
def access (self : Reader) : Parse Node := do
  extend (accessStep self true) (← operand self)

/-- A construction. -/
def construction (self : Reader) : Parse Node := do
  let start ← here
  expectWord "new"
  if ← accept "." then
    expectWord "target"
    close "meta_property" start []
  else
    let first ← if (← peek).isWord "new" then self .construction else operand self
    let constructor ← extend (accessStep self false) first
    let items ← if (← peek).isMark "(" then some <$> arguments self else pure none
    close "new_expression" start
      ([inField "constructor" constructor] ++ fieldList "arguments" items)

/-! ## Operators -/

/-- The words that stand in front of an operand. -/
def prefixWords : List String := ["typeof", "void", "delete"]

/-- Can an operand begin with this lexeme? -/
def beginsOperand (lexeme : Lexeme) : Bool :=
  match lexeme.token with
  | .word word => !(["in", "of", "instanceof"].contains word)
  | .number | .string => true
  | .mark mark =>
    ["(", "[", "\x7b", "\x60", "!", "~", "+", "-", "++", "--", "<", "/", "/=", "@"].contains mark
  | _ => false

/-- An operand with an update behind it, on the same line. -/
def updated (self : Reader) : Parse Node := do
  let node ← self .access
  let lexeme ← peek
  if lexeme.isOneOf ["++", "--"] && !lexeme.lineBreak && isPlain node then
    take lexeme
    close "update_expression" node.start [inField "argument" node]
  else
    return node

/-- An operand with the operators in front of it. -/
def unary (self : Reader) : Parse Node := do
  skipMarkupComments
  let lexeme ← peek
  match lexeme.token with
  | .mark mark =>
    if ["!", "~", "+", "-"].contains mark then
      take lexeme
      let argument ← self .unary
      close "unary_expression" lexeme.start [inField "argument" argument]
    else if mark == "++" || mark == "--" then
      take lexeme
      let argument ← self .unary
      close "update_expression" lexeme.start [inField "argument" argument]
    else
      updated self
  | .word word =>
    if prefixWords.contains word then
      take lexeme
      let argument ← self .unary
      close "unary_expression" lexeme.start [inField "argument" argument]
    else if word == "await" && beginsOperand (peekAfter lexeme) then
      take lexeme
      let argument ← self .unary
      close "await_expression" lexeme.start [argument]
    else
      updated self
  | _ => updated self

/-- How tightly an operator between two operands binds. -/
def operatorLevel? (allowIn : Bool) (lexeme : Lexeme) : Option Nat :=
  match lexeme.token with
  | .word "instanceof" => some 8
  | .word "in" => if allowIn then some 8 else none
  | .mark mark =>
    match mark with
    | "??" => some 1
    | "||" => some 2
    | "&&" => some 3
    | "|" => some 4
    | "^" => some 5
    | "&" => some 6
    | "==" | "!=" | "===" | "!==" => some 7
    | "<" | ">" | "<=" | ">=" => some 8
    | "<<" | ">>" | ">>>" => some 9
    | "+" | "-" => some 10
    | "*" | "/" | "%" => some 11
    | "**" => some 12
    | _ => none
  | _ => none

/-- Two operands with an operator between them. -/
def binaryNode (left right : Node) : Node :=
  ⟨{ kind := "binary_expression", start := left.start, stop := right.stop },
    [inField "left" left, inField "right" right]⟩

/-- Close the operators on the stack that bind at least as tightly as `level`; those of the tightest
level group from the right. -/
def closeOperators (level : Nat) : List (Node × Nat) → Node → List (Node × Nat) × Node
  | [], right => ([], right)
  | (left, top) :: rest, right =>
    if top > level || (top = level && level < 12) then
      closeOperators level rest (binaryNode left right)
    else
      ((left, top) :: rest, right)

/-- Operands with operators between them. -/
def binary (self : Reader) (allowIn : Bool) : Parse Node := do
  let first ← self .unary
  let (stack, last) ← extend (fun (stack, right) => do
    let lexeme ← peek
    match operatorLevel? allowIn lexeme with
    | none => return none
    | some level =>
      take lexeme
      let (stack, left) := closeOperators level stack right
      return some ((left, level) :: stack, ← self .unary)) (([] : List (Node × Nat)), first)
  return (closeOperators 0 stack last).2

/-- A condition with its two outcomes, or what stands in its place. -/
def conditional (self : Reader) (allowIn : Bool) : Parse Node := do
  let condition ← binary self allowIn
  if ← accept "?" then
    let consequence ← self (.expression true)
    expect ":"
    let alternative ← self (.expression allowIn)
    close "ternary_expression" condition.start
      [inField "condition" condition, inField "consequence" consequence,
       inField "alternative" alternative]
  else
    return condition

/-! ## Assignments -/

/-- The operators that change a place. -/
def changeMarks : List String :=
  ["+=", "-=", "*=", "/=", "%=", "**=", "<<=", ">>=", ">>>=", "&=", "|=", "^=", "&&=", "||=", "??="]

/-- What the word `yield` begins. -/
def yielded (self : Reader) (allowIn : Bool) (lexeme : Lexeme) : Parse Node := do
  take lexeme
  let following ← peek
  if following.isMark "*" then
    take following
    let value ← self (.expression allowIn)
    close "yield_expression" lexeme.start [value]
  else if beginsOperand following && !following.lineBreak then
    let value ← self (.expression allowIn)
    close "yield_expression" lexeme.start [value]
  else
    close "yield_expression" lexeme.start []

/-- One expression. -/
def expression (self : Reader) (allowIn : Bool) : Parse Node := do
  skipMarkupComments
  let first ← peek
  if first.isWord "yield" then yielded self allowIn first
  else
    let left ← conditional self allowIn
    let lexeme ← peek
    if lexeme.isMark "=" then
      match targetOf? left with
      | none => fail
      | some target =>
        take lexeme
        let right ← self (.expression allowIn)
        close "assignment_expression" left.start [inField "left" target, inField "right" right]
    else if lexeme.isOneOf changeMarks && isPlain left then
      take lexeme
      let right ← self (.expression allowIn)
      close "augmented_assignment_expression" left.start
        [inField "left" left, inField "right" right]
    else
      return left

/-- Expressions with commas between them. -/
def expressions (self : Reader) (allowIn : Bool) : Parse Node := do
  let first ← self (.expression allowIn)
  let rest ← repeatStep (do
    if ← accept "," then some <$> self (.expression allowIn) else return none)
  return sequence first rest

end LoggerLint.Script
