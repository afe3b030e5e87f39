import LoggerLint.Script.Statement

/-!
# Imports and exports

What a module takes from others, and what it gives to them.
-/

namespace LoggerLint.Script

open Parse

/-! ## Imports -/

/-- The name of a module, behind `from`. -/
def fromClause : Parse Node := do
  expectWord "from"
  let lexeme ← peek
  if lexeme.token == .string then inField "source" <$> leaf "string" lexeme else fail

/-- A name under which a module gives something. -/
def exportName : Parse Node := do
  let lexeme ← peek
  match lexeme.token with
  | .string => leaf "string" lexeme
  | .word "default" => keyword "default" lexeme
  | _ => identifier

/-- One import in braces. -/
def importSpecifier : Parse Node := do
  let lexeme ← peek
  let name ← exportName
  if ← acceptWord "as" then
    let alias_ ← identifier
    close "import_specifier" lexeme.start [inField "name" name, inField "alias" alias_]
  else if lexeme.isName then
    close "import_specifier" lexeme.start [inField "name" name]
  else
    fail

/-- An import of a whole module, or of names in braces. -/
def importGroup (lexeme : Lexeme) : Parse Node := do
  take lexeme
  if lexeme.isMark "*" then
    expectWord "as"
    let name ← identifier
    close "namespace_import" lexeme.start [name]
  else if lexeme.isMark "\x7b" then
    let specifiers ← commaList "\x7d" false importSpecifier
    close "named_imports" lexeme.start specifiers
  else
    fail

/-- What an import declares. -/
def importClause : Parse Node := do
  let lexeme ← peek
  if lexeme.isName then
    let name ← leaf "identifier" lexeme
    let group ← if ← accept "," then List.singleton <$> importGroup (← peek) else pure []
    close "import_clause" lexeme.start (name :: group)
  else
    let group ← importGroup lexeme
    close "import_clause" lexeme.start [group]

/-- The attributes of an import, if it has any. -/
def importAttribute (self : Reader) : Parse (List Node) := do
  let lexeme ← peek
  if lexeme.isWord "with" then
    take lexeme
    let brace ← peek
    unless brace.isMark "\x7b" do fail
    let value ← object self brace
    List.singleton <$> close "import_attribute" lexeme.start [value]
  else
    return []

/-- An import, behind its keyword. -/
def importFrom (self : Reader) (start : Nat) : Parse Node := do
  let lexeme ← peek
  let parts ←
    if lexeme.token == .string then do
      pure [inField "source" (← leaf "string" lexeme)]
    else do
      let clause ← importClause
      pure [clause, ← fromClause]
  let extra ← importAttribute self
  semicolon true
  close "import_statement" start (parts ++ extra)

/-! ## Exports -/

/-- One export in braces. -/
def exportSpecifier : Parse Node := do
  let start ← here
  let name ← exportName
  let alias? ← if ← acceptWord "as" then some <$> exportName else pure none
  close "export_specifier" start ([inField "name" name] ++ fieldList "alias" alias?)

/-- An export of names in braces. -/
def exportClause : Parse Node := do
  let start ← here
  expect "\x7b"
  let specifiers ← commaList "\x7d" false exportSpecifier
  close "export_clause" start specifiers

/-- An export of all of another module, behind its star. -/
def exportAll (lexeme : Lexeme) : Parse (List Node) := do
  take lexeme
  if ← acceptWord "as" then
    let name ← exportName
    let all ← close "namespace_export" lexeme.start [name]
    return [all, ← fromClause]
  else
    return [← fromClause]

/-- A declaration with decorators in front of it, if it begins with this lexeme. -/
def decoratedDeclaration? (self : Reader) (lexeme : Lexeme) : Parse (Option Node) := do
  if lexeme.isMark "@" then
    let decorated ← decorators self
    some <$> classFrom self lexeme.start decorated true
  else
    declaration? self lexeme

/-- What `export default` gives. -/
def exportDefault (self : Reader) : Parse Node := do
  let lexeme ← peek
  let value (expected : Parse Node) : Parse Node := do
    let node ← expected
    semicolon false
    return inField "value" node
  if lexeme.isMark "@" then
    orElse (inField "declaration" <$> do
        let decorated ← decorators self
        classFrom self lexeme.start decorated true)
      (value (self (.expression true)))
  else
    match ← declaration? self lexeme with
    | some node => return inField "declaration" node
    | none => value (self (.expression true))

/-- An export from its keyword on; its decorators are read. -/
def exportFrom (self : Reader) (start : Nat) (decorated : List Node) : Parse Node := do
  expectWord "export"
  let lexeme ← peek
  if lexeme.isMark "*" then
    let parts ← exportAll lexeme
    semicolon true
    close "export_statement" start (decorated ++ parts)
  else if lexeme.isMark "\x7b" then
    let clause ← exportClause
    let source ← if (← peek).isWord "from" then List.singleton <$> fromClause else pure []
    semicolon true
    close "export_statement" start (decorated ++ [clause] ++ source)
  else if lexeme.isWord "default" then
    take lexeme
    let value ← exportDefault self
    close "export_statement" start (decorated ++ [value])
  else
    match ← decoratedDeclaration? self lexeme with
    | some node => close "export_statement" start (decorated ++ [inField "declaration" node])
    | none => fail

end LoggerLint.Script
