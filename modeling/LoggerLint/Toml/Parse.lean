import LoggerLint.Toml.Document
import LoggerLint.Toml.Text

/-!
# Reading TOML

`Toml.parse` reads a document. The readers of nested values carry fuel, of which the length of the document
gives more than they can use: every value takes at least one character.
-/

namespace LoggerLint.Toml

/-- What is not there is malformed. -/
def demand {α : Type} : Option α → Except Error α
  | some a => .ok a
  | none => .error .malformed

/-! ## Keys -/

/-- One name of a key. -/
def name? : List Char → Option (String × List Char)
  | '"' :: rest => (basic? false .text rest).map fun (text, rest) => (String.ofList text, rest)
  | '\'' :: rest => (literal? rest).map fun (text, rest) => (String.ofList text, rest)
  | cs =>
    match cs.takeWhile isBareKey with
    | [] => none
    | name => some (String.ofList name, cs.dropWhile isBareKey)

/-- Names with dots between them, and the blanks after them. -/
def key? : (fuel : Nat) → List Char → Option (Key × List Char)
  | 0, _ => none
  | fuel + 1, cs => do
    let (name, rest) ← name? cs
    match skipBlanks rest with
    | '.' :: rest =>
      let (key, rest) ← key? fuel (skipBlanks rest)
      return (name :: key, rest)
    | rest => return ([name], rest)

/-- A key and the sign after it that a value follows. -/
def keyOfPair? (fuel : Nat) (cs : List Char) : Option (Key × List Char) := do
  let (key, rest) ← key? fuel cs
  let rest ← expect? '=' rest
  return (key, skipBlanks rest)

/-! ## Values -/

/-- A value that holds no others. -/
def scalar (cs : List Char) : Except Error (Value × List Char) :=
  match cs with
  | 't' :: 'r' :: 'u' :: 'e' :: rest => .ok (.bool true, rest)
  | 'f' :: 'a' :: 'l' :: 's' :: 'e' :: rest => .ok (.bool false, rest)
  | _ =>
    match quoted? cs with
    | some (text, rest) => .ok (.string (String.ofList text), rest)
    | none =>
      match (moment? cs).orElse fun _ =>
          ((based? cs).map fun (value, rest) => (.ok value, rest)).orElse fun _ => decimal? cs with
      | some (value, rest) => value.map fun value => (value, rest)
      | none => demand (special? cs)

mutual

/-- A value. -/
def value : (fuel : Nat) → List Char → Except Error (Value × List Char)
  | 0, _ => .error .malformed
  | fuel + 1, '[' :: rest => do
    let (items, rest) ← items fuel (← demand (skipLines? fuel rest))
    return (.array items, rest)
  | fuel + 1, '\x7b' :: rest =>
    match skipBlanks rest with
    | '\x7d' :: rest => .ok (.table [], rest)
    | rest => do
      let (table, rest) ← pairs fuel {} rest
      return (.table table.entries, rest)
  | _ + 1, cs => scalar cs

/-- The items of a list up to its closing bracket; a comma may follow the last one. -/
def items : (fuel : Nat) → List Char → Except Error (List Value × List Char)
  | 0, _ => .error .malformed
  | _ + 1, ']' :: rest => .ok ([], rest)
  | fuel + 1, cs => do
    let (item, rest) ← value fuel cs
    match ← demand (skipLines? fuel rest) with
    | ']' :: rest => return ([item], rest)
    | ',' :: rest =>
      let (more, rest) ← items fuel (← demand (skipLines? fuel rest))
      return (item :: more, rest)
    | _ => .error .malformed

/-- The pairs of a table up to its closing brace; none may follow a last comma. -/
def pairs : (fuel : Nat) → Inline → List Char → Except Error (Inline × List Char)
  | 0, _, _ => .error .malformed
  | fuel + 1, table, cs => do
    let (key, rest) ← demand (keyOfPair? fuel cs)
    let (item, rest) ← value fuel rest
    let table ← demand (table.insert key item)
    match skipBlanks rest with
    | '\x7d' :: rest => return (table, rest)
    | ',' :: rest => pairs fuel table (skipBlanks rest)
    | _ => .error .malformed

end

/-! ## Statements -/

/-- A header, from its bracket on. -/
def header (fuel : Nat) (doc : Document) : List Char → Option (Document × List Char)
  | '[' :: '[' :: rest => do
    let (key, rest) ← key? fuel (skipBlanks rest)
    let doc ← doc.settle.openItem key
    return (doc, ← expect? ']' (← expect? ']' rest))
  | '[' :: rest => do
    let (key, rest) ← key? fuel (skipBlanks rest)
    let doc ← doc.settle.openTable key
    return (doc, ← expect? ']' rest)
  | _ => none

/-- One statement, if one starts here. -/
def statement (fuel : Nat) (doc : Document) : List Char → Except Error (Document × List Char)
  | '#' :: rest => .ok (doc, '#' :: rest)
  | '[' :: rest => demand (header fuel doc ('[' :: rest))
  | cs => do
    let (key, rest) ← demand (keyOfPair? fuel cs)
    let (item, rest) ← value fuel rest
    return (← demand (doc.insert key item), rest)

/-- All statements, each on its own line; at most `lines` of them. -/
def statements (fuel : Nat) : (lines : Nat) → Document → List Char → Except Error Document
  | 0, doc, _ => .ok doc
  | lines + 1, doc, cs =>
    match skipBlanks cs with
    | [] => .ok doc
    | '\n' :: rest => statements fuel lines doc rest
    | cs => do
      let (doc, rest) ← statement fuel doc cs
      match ← demand (skipComment? (skipBlanks rest)) with
      | [] => .ok doc
      | '\n' :: rest => statements fuel lines doc rest
      | _ => .error .malformed

/-- A carriage return before the end of a line belongs to it. -/
def joinBreaks : List Char → List Char
  | '\r' :: '\n' :: rest => '\n' :: joinBreaks rest
  | c :: rest => c :: joinBreaks rest
  | [] => []

/-- Read a document. -/
def parse (text : List Char) : Except Error Entries :=
  let text := joinBreaks text
  let fuel := 2 * text.length + 2
  (statements fuel fuel {} text).map (·.entries)

end LoggerLint.Toml
