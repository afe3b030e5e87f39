import LoggerLint.Script.Semicolon

/-!
# Reading a script step by step

A `Parse` action reads from a script and gives a value, or fails at an offset. It remembers the end of
the last lexeme it took and the comments it passed. Lexemes are looked at before they are taken, so an
action that fails can be tried and another one read instead.

The grammar is recursive; its rules are written against a `Reader` for the other rules, and the knot is
tied once, in `LoggerLint.Script.Program`, with a bound on how deep rules may nest.
-/

namespace LoggerLint.Script

/-- What a parse remembers. -/
structure Cursor where
  /-- the place after the last lexeme taken -/
  place : Place
  /-- the comments passed, the latest first -/
  comments : List Node
  /-- how often anything may be repeated: more often than the script has characters -/
  limit : Nat
  deriving Inhabited

/-- An action that reads from a script; it fails with an offset. -/
abbrev Parse := StateT Cursor (Except Nat)

namespace Parse

/-! ## Looking and taking -/

/-- Fail where the parse stands. -/
def fail {α : Type} : Parse α := do
  throw (← get).place.offset

/-- The next lexeme, which is not taken. -/
def peek : Parse Lexeme := do
  return .next (← get).place

/-- The lexeme after this one. -/
def peekAfter (lexeme : Lexeme) : Lexeme :=
  .next lexeme.after

/-- Move to a place behind a lexeme's start, past the comments in front of it. -/
def moveTo (lexeme : Lexeme) (place : Place) : Parse Unit :=
  modify fun cursor => { cursor with place, comments := lexeme.comments ++ cursor.comments }

/-- Take a lexeme that was looked at. -/
def take (lexeme : Lexeme) : Parse Unit :=
  moveTo lexeme lexeme.after

/-- Take the next lexeme if it is this mark. -/
def accept (mark : String) : Parse Bool := do
  let lexeme ← peek
  if lexeme.isMark mark then
    take lexeme
    return true
  else
    return false

/-- Take this mark. -/
def expect (mark : String) : Parse Unit := do
  unless ← accept mark do fail

/-- Take the next lexeme if it is this word. -/
def acceptWord (word : String) : Parse Bool := do
  let lexeme ← peek
  if lexeme.isWord word then
    take lexeme
    return true
  else
    return false

/-- Take this word. -/
def expectWord (word : String) : Parse Unit := do
  unless ← acceptWord word do fail

/-- Where the next lexeme starts. -/
def here : Parse Nat := do
  return (← peek).start

/-! ## Nodes -/

/-- A node from `start` to the end of the last lexeme taken. -/
def close (kind : String) (start : Nat) (children : List Node) : Parse Node := do
  return ⟨{ kind, start, stop := (← get).place.offset }, children⟩

/-- Take a lexeme as a node without children. -/
def leaf (kind : String) (lexeme : Lexeme) : Parse Node := do
  take lexeme
  close kind lexeme.start []

/-- Take a word as an unnamed node. -/
def keyword (word : String) (lexeme : Lexeme) : Parse Node := do
  let ⟨label, children⟩ ← leaf word lexeme
  return ⟨{ label with named := false }, children⟩

end Parse

/-- A node in a field of its parent. -/
def inField (field : String) (node : Node) : Node :=
  ⟨{ node.label with field := some field }, node.children⟩

/-- A list with the node in it, if there is one. -/
def fieldList (field : String) (node? : Option Node) : List Node :=
  (node?.map (inField field)).toList

namespace Parse

/-! ## Repetition -/

/-- Repeat a step as long as it gives something, at most `fuel` times. -/
def repeatUpTo {α : Type} (step : Parse (Option α)) : (fuel : Nat) → Parse (List α)
  | 0 => fail
  | fuel + 1 => do
    match ← step with
    | none => return []
    | some a => return a :: (← repeatUpTo step fuel)

/-- Repeat a step as long as it gives something. A step that gives something reads something, so the
characters of the script bound the repetition. -/
def repeatStep {α : Type} (step : Parse (Option α)) : Parse (List α) := do
  repeatUpTo step (← get).limit

/-- Extend a value as long as a step can, at most `fuel` times. -/
def extendUpTo {α : Type} (step : α → Parse (Option α)) : (fuel : Nat) → α → Parse α
  | 0, _ => fail
  | fuel + 1, a => do
    match ← step a with
    | none => return a
    | some b => extendUpTo step fuel b

/-- Extend a value as long as a step can. -/
def extend {α : Type} (step : α → Parse (Option α)) (a : α) : Parse α := do
  extendUpTo step (← get).limit a

/-! ## Comments in angle brackets -/

/-- The comments in angle brackets in front of the next lexeme, where an operand or a statement may
stand. -/
def skipMarkupComments : Parse Unit := do
  discard <| repeatStep (do
    let lexeme ← peek
    if beginsWith lexeme.chars "<!--" || beginsWith lexeme.chars "-->" then
      let place := skipWhile (fun c => !isNewline c) lexeme.start lexeme.chars
      moveTo lexeme place
      let node : Node := ⟨{ kind := "html_comment", start := lexeme.start, stop := place.offset }, []⟩
      modify fun cursor => { cursor with comments := node :: cursor.comments }
      return some ()
    else
      return none)

/-! ## Lists -/

/-- Items with commas between them, up to a closing mark, which is taken. With `holes` an item may be
missing; a comma may always stand behind the last item. -/
def commaList (closing : String) (holes : Bool) (item : Parse Node) : Parse (List Node) := do
  let items ← repeatStep (do
    skipMarkupComments
    if ← accept closing then return none
    if holes then
      if ← accept "," then return some []
    let node ← item
    let lexeme ← peek
    if lexeme.isMark "," then
      take lexeme
    else unless lexeme.isMark closing do fail
    return some [node])
  return items.flatten

/-! ## Semicolons -/

/-- Move past the next comment, if there is one directly ahead. -/
def passComment : Parse Bool := do
  let cursor ← get
  let lexeme := Lexeme.next cursor.place
  match lexeme.comments.getLast? with
  | none => return false
  | some comment =>
    let place := skipWhileBefore comment.stop cursor.place
    set { cursor with place, comments := comment :: cursor.comments }
    return true
where
  /-- The place at an offset ahead. -/
  skipWhileBefore (stop : Nat) (place : Place) : Place :=
    go stop place.offset place.rest
  /-- The place at an offset ahead of these characters. -/
  go (stop offset : Nat) (chars : List Char) : Place :=
    match chars with
    | [] => ⟨[], offset⟩
    | c :: rest => if stop ≤ offset then ⟨chars, offset⟩ else go stop (offset + c.utf8Size) rest
  termination_by structural chars

/-- May the semicolon of a statement be left out here? -/
def semicolonLeftOut (bare : Bool) : Parse Bool := do
  return Semicolon.mayBeLeftOut bare (← get).place.rest

/-- End a statement: with its semicolon, or without it where that is allowed. -/
def semicolon (bare : Bool) : Parse Unit := do
  discard <| repeatStep (do
    if ← semicolonLeftOut bare then return none
    if ← passComment then return some ()
    expect ";"
    return none)

end Parse

/-! ## Rules of the grammar -/

/-- The rules that other rules refer to. -/
inductive Goal where
  /-- a statement -/
  | statement
  /-- a block of statements -/
  | block
  /-- expressions with commas between them; the flag allows the operator `in` -/
  | expressions (allowIn : Bool)
  /-- one expression; the flag allows the operator `in` -/
  | expression (allowIn : Bool)
  /-- an operand with the operators in front of it -/
  | unary
  /-- an operand with the accesses and calls behind it -/
  | access
  /-- a construction -/
  | construction
  /-- a name or a pattern that is declared -/
  | binding
  /-- a piece of markup -/
  | markup
  deriving DecidableEq, Repr

/-- A reader for every rule. -/
abbrev Reader := Goal → Parse Node

end LoggerLint.Script
