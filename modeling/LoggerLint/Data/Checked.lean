import LoggerLint.Data.Value
import LoggerLint.Text.Blank

/-!
# Checked data

Reading plain data into a type finds all that is wrong with it, and not just the first fault. A
`Checked` value is a value or a list of `Problem`s, each with its place in the data; joining two of them
joins their problems.

Some leniency is meant: a truth value may be spelled as a number or a word, and an integer as a number
without fraction or as a text.
-/

namespace LoggerLint

/-! ## Problems -/

/-- One step on the way to a piece of data. -/
inductive Step where
  /-- the value under a name -/
  | key (name : String)
  /-- the item at a place -/
  | index (i : Nat)
  deriving DecidableEq, Repr, Inhabited

/-- What can be wrong with a piece of data. -/
inductive Fault where
  /-- it is not asked for -/
  | extra
  /-- it is asked for and not there -/
  | missing
  /-- it is no list -/
  | notList
  /-- it is no text -/
  | notString
  /-- it is no truth value -/
  | notBool
  /-- it does not spell a truth value -/
  | unreadableBool
  /-- it is no integer -/
  | notInt
  /-- it does not spell an integer -/
  | unreadableInt
  /-- it is a number with a fraction -/
  | fraction
  /-- it is less than this -/
  | tooSmall (least : Int)
  /-- it is none of the words for a kind of complaint -/
  | notRuleType
  /-- it is no table of this sort -/
  | notTable (sort : String)
  /-- it is a text that no extension can be -/
  | badExtension (text : String)
  deriving DecidableEq, Repr, Inhabited

namespace Fault

/-- The short name of a fault. -/
def code : Fault → String
  | .extra => "extra_forbidden"
  | .missing => "missing"
  | .notList => "list_type"
  | .notString => "string_type"
  | .notBool => "bool_type"
  | .unreadableBool => "bool_parsing"
  | .notInt => "int_type"
  | .unreadableInt => "int_parsing"
  | .fraction => "int_from_float"
  | .tooSmall _ => "greater_than_equal"
  | .notRuleType => "literal_error"
  | .notTable _ => "model_type"
  | .badExtension _ => "value_error"

/-- What is said about a fault. -/
def message : Fault → String
  | .extra => "Extra inputs are not permitted"
  | .missing => "Field required"
  | .notList => "Input should be a valid list"
  | .notString => "Input should be a valid string"
  | .notBool => "Input should be a valid boolean"
  | .unreadableBool => "Input should be a valid boolean, unable to interpret input"
  | .notInt => "Input should be a valid integer"
  | .unreadableInt => "Input should be a valid integer, unable to parse string as an integer"
  | .fraction => "Input should be a valid integer, got a number with a fractional part"
  | .tooSmall least => "Input should be greater than or equal to " ++ toString least
  | .notRuleType => "Input should be 'problem', 'suggestion' or 'layout'"
  | .notTable sort => "Input should be a valid dictionary or instance of " ++ sort
  | .badExtension text => "Value error, Invalid extension '" ++ text ++ "': expected e.g. '.js'"

end Fault

/-- A fault and its place in the data. -/
structure Problem where
  /-- the way to the piece of data -/
  path : List Step
  /-- what is wrong with it -/
  fault : Fault
  deriving DecidableEq, Repr, Inhabited

/-! ## Results -/

/-- A value, or all that is wrong with the data for it. -/
inductive Checked (α : Type) where
  /-- the value -/
  | valid (value : α)
  /-- what is wrong -/
  | invalid (problems : List Problem)
  deriving Inhabited

namespace Checked

/-- The problems, if there are any. -/
def problems {α : Type} : Checked α → List Problem
  | .valid _ => []
  | .invalid problems => problems

/-- Apply a function to a value; the problems of both are kept. -/
def seq {α β : Type} (f : Checked (α → β)) (a : Checked α) : Checked β :=
  match f, a with
  | .valid f, .valid a => .valid (f a)
  | f, a => .invalid (f.problems ++ a.problems)

instance : Applicative Checked where
  pure := .valid
  seq f a := seq f (a ())

/-- One fault with the piece of data itself. -/
def fault {α : Type} (fault : Fault) : Checked α :=
  .invalid [⟨[], fault⟩]

/-- See the problems from further out. -/
def within {α : Type} (step : Step) : Checked α → Checked α
  | .valid a => .valid a
  | .invalid problems => .invalid (problems.map fun p => ⟨step :: p.path, p.fault⟩)

/-- Check every item of a list that starts at place `i`. -/
def items {α : Type} (check : Value → Checked α) : (i : Nat) → List Value → Checked (List α)
  | _, [] => .valid []
  | i, value :: rest =>
    List.cons <$> within (.index i) (check value) <*> items check (i + 1) rest

end Checked

/-! ## Single pieces of data -/

namespace Value

/-- A text. -/
def asString : Value → Checked String
  | .string s => .valid s
  | _ => .fault .notString

/-- A list. -/
def asList {α : Type} (check : Value → Checked α) : Value → Checked (List α)
  | .array items => .items check 0 items
  | _ => .fault .notList

/-- The words for a truth value, in lower case. -/
def boolOfWord? (word : String) : Option Bool :=
  if ["1", "on", "t", "true", "y", "yes"].contains word then some true
  else if ["0", "off", "f", "false", "n", "no"].contains word then some false
  else none

/-- Can this integer be written with 64 bits, one of them for the sign? -/
def isWord64 (n : Int) : Bool :=
  -0x8000000000000000 ≤ n && n < 0x8000000000000000

/-- A truth value. -/
def asBool : Value → Checked Bool
  | .bool b => .valid b
  | .int n =>
    if n = 0 then .valid false
    else if n = 1 then .valid true
    else if isWord64 n then .fault .unreadableBool
    else .fault .notBool
  | .float x =>
    if x == 0 then .valid false
    else if x == 1 then .valid true
    else .fault .notBool
  | .string s =>
    match boolOfWord? (String.ofList (s.toList.map Char.toLower)) with
    | some b => .valid b
    | none => .fault .unreadableBool
  | _ => .fault .notBool

/-- The number that digits spell in plain form: without a zero in front of others. -/
def plainNatural? : List Char → Option Nat
  | [] => none
  | ['0'] => some 0
  | '0' :: _ => none
  | digits =>
    if digits.all Char.isDigit then some (digits.foldl (fun n c => n * 10 + (c.toNat - 48)) 0)
    else none

/-- The integer in plain form: an optional minus and a number. -/
def plainInteger? : List Char → Option Int
  | '-' :: digits => (plainNatural? digits).map fun n => -(n : Int)
  | digits => (plainNatural? digits).map fun n => (n : Int)

/-- The text after the zeros in front of a number, which may have single underscores between them. One of
them stays if no other digit follows. -/
def afterZeros? (last : Char) : List Char → Option (List Char)
  | [] => some [last]
  | c :: rest =>
    if c = '0' || (c = '_' && last ≠ '_') then afterZeros? c rest
    else if c = '.' then some (last :: c :: rest)
    else if c.isDigit then some (c :: rest)
    else none

/-- A number without the zeros in front of it; behind a minus they stay. -/
def withoutZeros? : List Char → Option (List Char)
  | '0' :: rest => afterZeros? '0' rest
  | c :: rest => if c.isDigit || c = '-' then some (c :: rest) else none
  | [] => none

/-- The text in front of a fraction of zeros. -/
def withoutZeroFraction (cs : List Char) : List Char :=
  match cs.dropWhile (· ≠ '.') with
  | _ :: fraction => if fraction.all (· = '0') then cs.takeWhile (· ≠ '.') else cs
  | [] => cs

/-- Do two underscores stand together? -/
def hasDoubleUnderscore : List Char → Bool
  | '_' :: '_' :: _ => true
  | _ :: rest => hasDoubleUnderscore rest
  | [] => false

/-- A text without its underscores, if none is doubled and none stands at an end. -/
def withoutUnderscores (cs : List Char) : List Char :=
  if cs.head? = some '_' || cs.getLast? = some '_' || hasDoubleUnderscore cs then cs
  else cs.filter (· ≠ '_')

/-- The plain form of a number that is written with a plus, with zeros in front of it, with a fraction of
zeros or with underscores. -/
def plainForm? (cs : List Char) : Option (List Char) := do
  let unsigned ←
    match cs with
    | '+' :: '-' :: _ => none
    | '+' :: rest => some rest
    | cs => some cs
  let number ← withoutZeros? unsigned
  return withoutUnderscores (withoutZeroFraction number)

/-- The integer that a text spells; white space may stand around it. -/
def integerOf? (text : String) : Option Int :=
  let inner := (text.toList.dropWhile Blank.isWhiteSpace).reverse.dropWhile Blank.isWhiteSpace
  match plainInteger? inner.reverse with
  | some n => some n
  | none => (plainForm? inner.reverse).bind plainInteger?

/-- An integer. -/
def asInt : Value → Checked Int
  | .int n => .valid n
  | .bool b => .valid (if b then 1 else 0)
  | .float x => if x.floor == x then .valid x.toInt64.toInt else .fault .fraction
  | .string s =>
    match integerOf? s with
    | some n => .valid n
    | none => .fault .unreadableInt
  | _ => .fault .notInt

/-- An integer that is not negative. -/
def asNat (value : Value) : Checked Nat :=
  match value.asInt with
  | .valid n => if n < 0 then .fault (.tooSmall 0) else .valid n.toNat
  | .invalid problems => .invalid problems

end Value

/-! ## Tables -/

/-- The entries of a table that is being read. -/
abbrev Entries := List (String × Value)

namespace Entries

/-- The value under a name, which has to be there. -/
def required {α : Type} (entries : Entries) (name : String) (check : Value → Checked α) :
    Checked α :=
  match entries.lookup name with
  | some value => .within (.key name) (check value)
  | none => .within (.key name) (.fault .missing)

/-- The value under a name, or a default. -/
def optional {α : Type} (entries : Entries) (name : String) (default : α)
    (check : Value → Checked α) : Checked α :=
  match entries.lookup name with
  | some value => .within (.key name) (check value)
  | none => .valid default

/-- Every name has to be one of these. -/
def noOthers (entries : Entries) (known : List String) : Checked Unit :=
  match entries.filter fun (name, _) => !known.contains name with
  | [] => .valid ()
  | others => .invalid (others.map fun (name, _) => ⟨[.key name], .extra⟩)

end Entries

/-- Read a table of some sort. -/
def Value.asTable {α : Type} (sort : String) (read : Entries → Checked α) : Value → Checked α
  | .table entries => read entries
  | _ => .fault (.notTable sort)

end LoggerLint
