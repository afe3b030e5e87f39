import LoggerLint.Script.Expression

/-!
# Statements

Most statements are told by the word they begin with. A word with a colon behind it is a label, and
everything else is an expression. An opening brace begins a block; only when its content reads as members
of an object, and not as statements, is it an object.
-/

namespace LoggerLint.Script

open Parse

/-! ## Declarations -/

/-- A declarator. -/
def declarator (self : Reader) (allowIn : Bool) : Parse Node := do
  let start ← here
  let name ← self .binding
  let value? ← if ← accept "=" then some <$> self (.expression allowIn) else pure none
  close "variable_declarator" start ([inField "name" name] ++ fieldList "value" value?)

/-- Declarators with commas between them. -/
def declarators (self : Reader) (allowIn : Bool) : Parse (List Node) := do
  let first ← declarator self allowIn
  let rest ← repeatStep (do
    if ← accept "," then some <$> declarator self allowIn else return none)
  return first :: rest

/-- The kind of declaration that a keyword begins. -/
def declarationKind (word : String) : String :=
  match word with
  | "var" => "variable_declaration"
  | "using" => "using_declaration"
  | _ => "lexical_declaration"

/-- The keyword of a declaration as a node. -/
def declarationKeyword (word : String) (lexeme : Lexeme) : Parse Node := do
  let node ← keyword word lexeme
  return if word == "var" then node else inField "kind" node

/-- Did the last declarator have a value? -/
def endsInValue (list : List Node) : Bool :=
  list.getLast?.any fun node => (node.child? "value").isSome

/-- A declaration that starts at `start` and whose keyword is this lexeme. -/
def declarationFrom (self : Reader) (start : Nat) (word : String) (lexeme : Lexeme) :
    Parse Node := do
  let keyword ← declarationKeyword word lexeme
  let list ← declarators self true
  semicolon !(endsInValue list)
  close (declarationKind word) start (keyword :: list)

/-- Does a name that is declared begin with this lexeme? -/
def beginsBinding (lexeme : Lexeme) : Bool :=
  lexeme.isOneOf ["\x7b", "["] || lexeme.isName

/-- Does this lexeme, the word `using`, begin a declaration? -/
def beginsUsing (lexeme : Lexeme) : Bool :=
  let following := peekAfter lexeme
  lexeme.isWord "using" && following.isName && !following.lineBreak && !following.isWord "of"

/-- The keyword of a declaration, if this lexeme is one. -/
def declarationWord? (lexeme : Lexeme) : Option String :=
  match lexeme.token with
  | .word "var" => some "var"
  | .word "const" => some "const"
  | .word "let" => if beginsBinding (peekAfter lexeme) then some "let" else none
  | .word "using" => if beginsUsing lexeme then some "using" else none
  | _ => none

/-! ## Expressions as statements -/

/-- An expression as a statement. -/
def expressionStatement (self : Reader) : Parse Node := do
  let start ← here
  let value ← self (.expressions true)
  semicolon false
  close "expression_statement" start [value]

/-- Try one action; where it fails, go back and take the other. -/
def orElse {α : Type} (first second : Parse α) : Parse α :=
  fun cursor =>
    match first cursor with
    | .ok result => .ok result
    | .error _ => second cursor

/-! ## Blocks -/

/-- Statements up to a closing brace, which is taken. -/
def statementsToBrace (self : Reader) : Parse (List Node) :=
  repeatStep (do
    skipMarkupComments
    if ← accept "\x7d" then return none
    some <$> self .statement)

/-- A block of statements. -/
def block (self : Reader) : Parse Node := do
  let start ← here
  expect "\x7b"
  let statements ← statementsToBrace self
  close "statement_block" start statements

/-- A statement that begins with this brace. With a key and a colon behind the brace an object is
preferred, otherwise a block. -/
def braceStatement (self : Reader) (lexeme : Lexeme) : Parse Node :=
  let key := peekAfter lexeme
  let keyed :=
    match key.token with
    | .word _ => (peekAfter key).isMark ":"
    | _ => false
  if keyed then orElse (expressionStatement self) (self .block)
  else orElse (self .block) (expressionStatement self)

/-! ## Conditions and loops -/

/-- A condition in parentheses. -/
def condition (self : Reader) : Parse Node := do
  let lexeme ← peek
  if lexeme.isMark "(" then
    take lexeme
    let value ← self (.expressions true)
    expect ")"
    close "parenthesized_expression" lexeme.start [value]
  else
    fail

/-- An `if` statement, behind its keyword. -/
def ifFrom (self : Reader) (start : Nat) : Parse Node := do
  let test ← condition self
  let consequence ← self .statement
  let lexeme ← peek
  let alternative ←
    if lexeme.isWord "else" then do
      take lexeme
      let body ← self .statement
      some <$> close "else_clause" lexeme.start [body]
    else
      pure none
  close "if_statement" start
    ([inField "condition" test, inField "consequence" consequence] ++
      fieldList "alternative" alternative)

/-- A loop with its condition in front, or a `with` statement, behind its keyword. -/
def headedFrom (self : Reader) (kind head : String) (start : Nat) : Parse Node := do
  let test ← condition self
  let body ← self .statement
  close kind start [inField head test, inField "body" body]

/-- A loop with its condition behind, behind its keyword. -/
def doFrom (self : Reader) (start : Nat) : Parse Node := do
  let body ← self .statement
  expectWord "while"
  let test ← condition self
  discard (accept ";")
  close "do_statement" start [inField "body" body, inField "condition" test]

/-- A semicolon as a statement of its own. -/
def emptyStatement : Parse Node := do
  let lexeme ← peek
  if lexeme.isMark ";" then leaf "empty_statement" lexeme else fail

/-- The rest of a loop with a head of three parts, behind the first of them. -/
def forFrom (self : Reader) (start : Nat) (initializer : Node) : Parse Node := do
  let test ←
    if (← peek).isMark ";" then emptyStatement
    else do
      let value ← self (.expressions true)
      expect ";"
      pure value
  let increment ← if (← peek).isMark ")" then pure none else some <$> self (.expressions true)
  expect ")"
  let body ← self .statement
  close "for_statement" start
    ([inField "initializer" initializer, inField "condition" test] ++
      fieldList "increment" increment ++ [inField "body" body])

/-- Is this the word between the two sides of a loop over keys or elements? -/
def isLoopWord (lexeme : Lexeme) : Bool :=
  lexeme.isWord "in" || lexeme.isWord "of"

/-- The rest of a loop over keys or elements, behind its left side. -/
def forInFrom (self : Reader) (start : Nat) (head : List Node) : Parse Node := do
  let lexeme ← peek
  unless isLoopWord lexeme do fail
  take lexeme
  let right ← self (.expressions true)
  expect ")"
  let body ← self .statement
  close "for_in_statement" start (head ++ [inField "right" right, inField "body" body])

/-- A loop whose head declares names with this keyword. -/
def forDeclared (self : Reader) (start : Nat) (word : String) (lexeme : Lexeme) : Parse Node := do
  let keyword ← keyword word lexeme
  let nameStart ← here
  let name ← self .binding
  let kind := inField "kind" keyword
  if isLoopWord (← peek) then forInFrom self start [kind, inField "left" name]
  else
    let value? ← if ← accept "=" then some <$> self (.expression false) else pure none
    if isLoopWord (← peek) then
      forInFrom self start ([kind, inField "left" name] ++ fieldList "value" value?)
    else
      let first ← close "variable_declarator" nameStart
        ([inField "name" name] ++ fieldList "value" value?)
      let rest ← if ← accept "," then declarators self false else pure []
      expect ";"
      let initializer ← close (declarationKind word) lexeme.start
        ((if word == "var" then keyword else kind) :: first :: rest)
      forFrom self start initializer

/-- A loop whose head begins with an expression. -/
def forExpression (self : Reader) (start : Nat) : Parse Node := do
  let left ← self (.expressions false)
  if isLoopWord (← peek) then
    match targetOf? left with
    | none => fail
    | some target => forInFrom self start [inField "left" target]
  else
    expect ";"
    forFrom self start left

/-- A `for` loop, behind its keyword. -/
def forLoop (self : Reader) (start : Nat) : Parse Node := do
  discard (acceptWord "await")
  expect "("
  let lexeme ← peek
  let following := peekAfter lexeme
  if lexeme.isMark ";" then forFrom self start (← emptyStatement)
  else if lexeme.isWord "await" && beginsUsing following then
    take lexeme
    forDeclared self start "using" following
  else
    match declarationWord? lexeme with
    | some word => forDeclared self start word lexeme
    | none => forExpression self start

/-! ## Jumps and exceptions -/

/-- A jump, behind its keyword. -/
def jumpFrom (kind : String) (start : Nat) : Parse Node := do
  let label ←
    if ← semicolonLeftOut true then pure none
    else do
      let lexeme ← peek
      if lexeme.isName then some <$> leaf "statement_identifier" lexeme else pure none
  semicolon true
  close kind start (fieldList "label" label)

/-- A `return` statement, behind its keyword. -/
def returnFrom (self : Reader) (start : Nat) : Parse Node := do
  let leftOut ← semicolonLeftOut true
  if leftOut || (← peek).isMark ";" then
    semicolon true
    close "return_statement" start []
  else
    let value ← self (.expressions true)
    semicolon false
    close "return_statement" start [value]

/-- A `throw` statement, behind its keyword. -/
def throwFrom (self : Reader) (start : Nat) : Parse Node := do
  let value ← self (.expressions true)
  semicolon false
  close "throw_statement" start [value]

/-- A handler of exceptions, if one stands here. -/
def catchClause? (self : Reader) : Parse (Option Node) := do
  let lexeme ← peek
  if lexeme.isWord "catch" then
    take lexeme
    let parameter ←
      if ← accept "(" then do
        let name ← self .binding
        expect ")"
        pure (some name)
      else
        pure none
    let body ← self .block
    some <$> close "catch_clause" lexeme.start
      (fieldList "parameter" parameter ++ [inField "body" body])
  else
    return none

/-- A `try` statement, behind its keyword. -/
def tryFrom (self : Reader) (start : Nat) : Parse Node := do
  let body ← self .block
  let handler ← catchClause? self
  let lexeme ← peek
  let finalizer ←
    if lexeme.isWord "finally" then do
      take lexeme
      let body ← self .block
      some <$> close "finally_clause" lexeme.start [inField "body" body]
    else
      pure none
  close "try_statement" start
    ([inField "body" body] ++ fieldList "handler" handler ++ fieldList "finalizer" finalizer)

/-! ## Switches -/

/-- The statements of a case, up to the next case or the end of the switch. -/
def caseStatements (self : Reader) : Parse (List Node) :=
  repeatStep (do
    skipMarkupComments
    let lexeme ← peek
    if lexeme.isWord "case" || lexeme.isWord "default" || lexeme.isMark "\x7d" then return none
    some <$> (inField "body" <$> self .statement))

/-- A case of a switch. -/
def switchCase (self : Reader) : Parse Node := do
  let lexeme ← peek
  if lexeme.isWord "default" then
    take lexeme
    expect ":"
    let statements ← caseStatements self
    close "switch_default" lexeme.start statements
  else
    expectWord "case"
    let value ← self (.expressions true)
    expect ":"
    let statements ← caseStatements self
    close "switch_case" lexeme.start (inField "value" value :: statements)

/-- A `switch` statement, behind its keyword. -/
def switchFrom (self : Reader) (start : Nat) : Parse Node := do
  let value ← condition self
  let bodyStart ← here
  expect "\x7b"
  let cases ← repeatStep (do
    skipMarkupComments
    if ← accept "\x7d" then return none
    some <$> switchCase self)
  let body ← close "switch_body" bodyStart cases
  close "switch_statement" start [inField "value" value, inField "body" body]

/-! ## Functions and classes as statements -/

/-- Does a declared function begin with this lexeme, the keyword of a function? -/
def namesFunction (lexeme : Lexeme) : Bool :=
  let following := peekAfter lexeme
  following.isName || (following.isMark "*" && (peekAfter following).isName)

/-- A declaration of a function, a class or variables that begins with this lexeme, if there is one. -/
def declaration? (self : Reader) (lexeme : Lexeme) : Parse (Option Node) := do
  let following := peekAfter lexeme
  if lexeme.isWord "function" && namesFunction lexeme then
    some <$> functionFrom self lexeme.start true
  else if lexeme.isWord "async" && beginsFunction following && namesFunction following then
    take lexeme
    some <$> functionFrom self lexeme.start true
  else if lexeme.isWord "class" && following.isName then
    some <$> classFrom self lexeme.start [] true
  else if lexeme.isWord "await" && beginsUsing following && !following.lineBreak then
    take lexeme
    some <$> declarationFrom self lexeme.start "using" following
  else
    match declarationWord? lexeme with
    | some word => some <$> declarationFrom self lexeme.start word lexeme
    | none => return none

end LoggerLint.Script
