import LoggerLint.Lint
import LoggerLint.Script.Markup
import LoggerLint.Script.Module

/-!
# Whole scripts

`parse` reads a script into its syntax tree. The rules of the grammar are tied together here: `read`
gives every rule the readers of the others, one level of nesting deeper. A rule that nests takes at least
one character for every few levels, so a bound made from the length of the script is never reached.

Comments are left out while the rules run. They are put back at the end, each into the innermost node
around it.
-/

namespace LoggerLint.Script

open Parse

/-! ## Statements -/

/-- A statement that begins with a word of its own, if the word is one. -/
def wordStatement? (self : Reader) (lexeme : Lexeme) (word : String) : Parse (Option Node) := do
  let start := lexeme.start
  match word with
  | "if" => take lexeme; some <$> ifFrom self start
  | "for" => take lexeme; some <$> forLoop self start
  | "while" => take lexeme; some <$> headedFrom self "while_statement" "condition" start
  | "with" => take lexeme; some <$> headedFrom self "with_statement" "object" start
  | "do" => take lexeme; some <$> doFrom self start
  | "try" => take lexeme; some <$> tryFrom self start
  | "switch" => take lexeme; some <$> switchFrom self start
  | "return" => take lexeme; some <$> returnFrom self start
  | "throw" => take lexeme; some <$> throwFrom self start
  | "break" => take lexeme; some <$> jumpFrom "break_statement" start
  | "continue" => take lexeme; some <$> jumpFrom "continue_statement" start
  | "debugger" =>
    take lexeme
    semicolon true
    some <$> close "debugger_statement" start []
  | "export" => some <$> exportFrom self start []
  | "import" =>
    if (peekAfter lexeme).isOneOf ["(", "."] then return none
    take lexeme
    some <$> importFrom self start
  | _ => declaration? self lexeme

/-- A statement with a label, whose name is this lexeme. -/
def labeled (self : Reader) (lexeme : Lexeme) : Parse Node := do
  let label ← leaf "statement_identifier" lexeme
  expect ":"
  let body ← self .statement
  close "labeled_statement" lexeme.start [inField "label" label, inField "body" body]

/-- What decorators in front of a statement belong to: a class, or an export. -/
def decoratedStatement (self : Reader) (lexeme : Lexeme) : Parse Node := do
  let decorated ← decorators self
  let following ← peek
  if following.isWord "export" then exportFrom self lexeme.start decorated
  else if (peekAfter following).isName then classFrom self lexeme.start decorated true
  else fail

/-- A statement. -/
def statement (self : Reader) : Parse Node := do
  skipMarkupComments
  let lexeme ← peek
  match lexeme.token with
  | .word word =>
    if lexeme.isName && (peekAfter lexeme).isMark ":" then labeled self lexeme
    else
      match ← wordStatement? self lexeme word with
      | some node => return node
      | none => expressionStatement self
  | .mark "\x7b" => braceStatement self lexeme
  | .mark ";" => emptyStatement
  | .mark "@" => orElse (decoratedStatement self lexeme) (expressionStatement self)
  | _ => expressionStatement self

/-! ## Tying the rules together -/

/-- The rules of the grammar, given the readers of the rules inside them. -/
def rules (self : Reader) : Reader
  | .statement => statement self
  | .block => block self
  | .expressions allowIn => expressions self allowIn
  | .expression allowIn => expression self allowIn
  | .unary => unary self
  | .access => access self
  | .construction => construction self
  | .binding => binding self
  | .markup => markup self

/-- The readers of all rules, which nest at most `depth` levels. -/
def read : (depth : Nat) → Reader
  | 0, _ => fail
  | depth + 1, goal => rules (read depth) goal

/-- The interpreter line at the start of a script, if there is one. -/
def interpreterLine : Parse (List Node) := do
  let lexeme ← peek
  if beginsWith lexeme.chars "#!" then
    moveTo lexeme (skipWhile (· != '\n') lexeme.start lexeme.chars)
    List.singleton <$> close "hash_bang_line" lexeme.start []
  else
    return []

/-- A whole script. -/
def program (self : Reader) : Parse (List Node) := do
  let line ← interpreterLine
  let statements ← repeatStep (do
    skipMarkupComments
    let lexeme ← peek
    if lexeme.token == .finish then
      take lexeme
      return none
    some <$> self .statement)
  return line ++ statements

/-! ## Comments -/

mutual

/-- Put comments, which lie inside a node, into it. -/
def placeComments : Node → List Node → Node
  | ⟨label, children⟩, comments =>
    if comments.isEmpty then ⟨label, children⟩ else ⟨label, placeAmong children comments⟩
termination_by structural node => node

/-- Put comments among nodes: between two of them, or into the one around it. -/
def placeAmong : List Node → List Node → List Node
  | [], comments => comments
  | node :: rest, comments =>
    let (before, later) := comments.span (·.start < node.start)
    let (inside, after) := later.span (·.start < node.stop)
    before ++ placeComments node inside :: placeAmong rest after
termination_by structural nodes => nodes

end

/-! ## Trees -/

/-- The tree of a script that cannot be read: an error at an offset. -/
def unreadable (offset length : Nat) : Node :=
  ⟨{ kind := "ERROR", start := offset, stop := max offset length }, []⟩

/-- Read a script into its syntax tree. -/
def parse (source : Bytes) : Node :=
  let chars := Utf8.decodeLossy source
  let reader := read (4 * chars.length + 32)
  match (program reader).run ⟨⟨chars, 0⟩, [], chars.length + 2⟩ with
  | .error offset => unreadable offset source.length
  | .ok (statements, cursor) =>
    let root : Node := ⟨{ kind := "program", start := 0, stop := source.length },
      placeAmong statements cursor.comments.reverse⟩
    if hasStrayDefault root then unreadable 0 source.length else root

end LoggerLint.Script
