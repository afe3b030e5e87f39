import LoggerLint.Script.Expression

/-!
# Markup in expressions

An element has a name, attributes, and unless it closes itself, children and a closing tag. Children are
text, braces with an expression, and further elements. Text ends at an angle bracket or a brace, and an
ampersand in it has to begin a character reference.
-/

namespace LoggerLint.Script

open Parse

/-! ## Names -/

/-- Can this character stand behind the first hyphen of a name? -/
def isHyphenated (c : Char) : Bool :=
  c = '-' || c = '$' || c = '_' || isLetter c || isDecimal c

/-- A name, in which hyphens may stand. -/
def markupName (kind : String) : Parse Node := do
  let lexeme ← peek
  match lexeme.token with
  | .word _ =>
    let place :=
      if lexeme.after.rest.head? == some '-' then
        skipWhile isHyphenated lexeme.after.offset lexeme.after.rest
      else
        lexeme.after
    moveTo lexeme place
    close kind lexeme.start []
  | _ => fail

/-- A name behind the colon of a namespace. -/
def namespaced (space : Node) : Parse Node := do
  expect ":"
  let name ← markupName "identifier"
  close "jsx_namespace_name" space.start [space, name]

/-- The name of an element. -/
def elementName : Parse Node := do
  let name ← markupName "identifier"
  if (← peek).isMark ":" then namespaced name
  else
    extend (fun object => do
      if ← accept "." then
        let property ← markupName "property_identifier"
        return some (← close "member_expression" object.start
          [inField "object" object, inField "property" property])
      else
        return none) name

/-! ## Attributes -/

/-- Take this character, which may be the first of a longer mark. -/
def expectChar (c : Char) : Parse Unit := do
  let lexeme ← peek
  match lexeme.chars with
  | d :: rest => if d = c then moveTo lexeme ⟨rest, lexeme.start + c.utf8Size⟩ else fail
  | [] => fail

/-- Does this character come next? -/
def nextIs (c : Char) : Parse Bool := do
  return (← peek).chars.head? == some c

/-- Braces with an expression, with something that spreads, or with nothing. -/
def markupExpression (self : Reader) : Parse Node := do
  let start ← here
  expect "\x7b"
  let lexeme ← peek
  let children ←
    if lexeme.isMark "\x7d" then pure []
    else if lexeme.isMark "..." then List.singleton <$> spreadElement self
    else List.singleton <$> self (.expressions true)
  expect "\x7d"
  close "jsx_expression" start children

/-- A string among attributes, which knows no escapes. -/
def attributeString (lexeme : Lexeme) (quote : Char) : Parse Node := do
  let place := skipWhile (· != quote) (lexeme.start + 1) (lexeme.chars.drop 1)
  match place.rest with
  | [] => fail
  | _ :: rest =>
    moveTo lexeme ⟨rest, place.offset + 1⟩
    close "string" lexeme.start []

/-- The value of an attribute. -/
def attributeValue (self : Reader) : Parse Node := do
  let lexeme ← peek
  match lexeme.chars.head? with
  | some '"' => attributeString lexeme '"'
  | some '\'' => attributeString lexeme '\''
  | some '{' => markupExpression self
  | some '<' => self .markup
  | _ => fail

/-- An attribute. -/
def elementAttribute (self : Reader) : Parse Node := do
  let start ← here
  if ← nextIs '{' then markupExpression self
  else
    let name ← markupName "property_identifier"
    let name ←
      if (← peek).isMark ":" then namespaced (ofKind "identifier" name.label [])
      else pure name
    if ← nextIs '=' then
      expectChar '='
      let value ← attributeValue self
      close "jsx_attribute" start [name, value]
    else
      close "jsx_attribute" start [name]

/-- The attributes of an element. -/
def attributes (self : Reader) : Parse (List Node) :=
  repeatStep (do
    if (← nextIs '/') || (← nextIs '>') then return none
    return some (inField "attribute" (← elementAttribute self)))

/-! ## Text -/

/-- The place behind a character reference, whose ampersand was taken. -/
def skipReference? (place : Place) : Option Place :=
  let named :=
    match place.rest with
    | '#' :: x :: rest =>
      if x = 'x' || x = 'X' then skipWhile Digit.isHex (place.offset + 2) rest
      else skipWhile isDecimal (place.offset + 1) (x :: rest)
    | _ => skipWhile isLetter place.offset place.rest
  match named.rest with
  | ';' :: rest => if place.offset < named.offset then some ⟨rest, named.offset + 1⟩ else none
  | _ => none

/-- Does this character end a run of text? -/
def endsText (c : Char) : Bool :=
  c = '<' || c = '>' || c = '{' || c = '}' || c = '&'

/-! ## Elements -/

/-- What an element holds between its tags, up to the angle bracket of the closing one. -/
def markupChildren (self : Reader) : Parse (List Node) := do
  let children ← repeatStep (do
    let start := (← get).place
    let place := skipWhile (!endsText ·) start.offset start.rest
    match place.rest with
    | '&' :: rest =>
      match skipReference? ⟨rest, place.offset + 1⟩ with
      | none => fail
      | some after =>
        jump after
        return some []
    | '{' :: _ =>
      jump place
      return some [← markupExpression self]
    | '<' :: _ =>
      jump place
      let lexeme ← peek
      let following := Lexeme.next ⟨lexeme.chars.drop 1, lexeme.start + 1⟩
      if following.chars.head? == some '/' then return none
      return some [← self .markup]
    | _ => fail)
  return children.flatten

/-- The closing tag of an element; one of a fragment has no name. -/
def closingTag : Parse Node := do
  let start ← here
  expectChar '<'
  expectChar '/'
  let name ← if ← nextIs '>' then pure none else some <$> elementName
  expectChar '>'
  close "jsx_closing_element" start (fieldList "name" name)

/-- An element. -/
def markup (self : Reader) : Parse Node := do
  let start ← here
  expectChar '<'
  let tag ←
    if ← nextIs '>' then pure []
    else do
      let name ← elementName
      pure (inField "name" name :: (← attributes self))
  if ← nextIs '/' then
    if tag.isEmpty then fail
    expectChar '/'
    expectChar '>'
    close "jsx_self_closing_element" start tag
  else
    expectChar '>'
    let opening ← close "jsx_opening_element" start tag
    let children ← markupChildren self
    let closing ← closingTag
    close "jsx_element" start
      ([inField "open_tag" opening] ++ children ++ [inField "close_tag" closing])

end LoggerLint.Script
