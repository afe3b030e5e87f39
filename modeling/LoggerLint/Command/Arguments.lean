/-!
# Arguments

What can be asked for on the command line:

* `check [root] [--format text|json]` reports problems;
* `fix [root]` mends them;
* `-v` or `--verbose` before either shows the whole log, and `-h` or `--help` anywhere asks for help.

Long switches may be shortened as long as they stay clear, a value may follow its switch after `=`, and
short switches may be written together. After `--` nothing is a switch.
-/

namespace LoggerLint.Command

/-- How problems are written. -/
inductive Format where
  /-- one line of text each -/
  | text
  /-- one JSON object each -/
  | json
  deriving DecidableEq, Repr, Inhabited

/-- What is to be done. -/
inductive Task where
  /-- report problems -/
  | check (format : Format)
  /-- mend problems -/
  | fix
  deriving DecidableEq, Repr, Inhabited

/-- What was asked for. -/
structure Arguments where
  /-- is the whole log shown -/
  verbose : Bool
  /-- what is to be done -/
  task : Task
  /-- where it is to be done -/
  root : String
  deriving DecidableEq, Repr, Inhabited

/-- Why nothing is done. -/
inductive Exit where
  /-- only help was asked for -/
  | help
  /-- the arguments make no sense -/
  | misuse
  deriving DecidableEq, Repr, Inhabited

namespace Exit

/-- The exit code of a run that does nothing. -/
def code : Exit → Nat
  | .help => 0
  | .misuse => 2

end Exit

/-! ## Words -/

/-- What a switch is for. -/
inductive Switch where
  | help | verbose | format
  deriving DecidableEq, Repr, Inhabited

/-- The names of switches. -/
abbrev Switches := List (String × Switch)

/-- What is written right behind the name of a switch. -/
inductive Attached where
  /-- nothing -/
  | nothing
  /-- a value after `=` -/
  | value (text : String)
  /-- more short switches -/
  | more (letters : List Char)
  deriving DecidableEq, Repr, Inhabited

/-- One argument, seen with the switches that are known. -/
inductive Word where
  /-- no switch -/
  | plain (text : String)
  /-- the mark after which nothing is a switch -/
  | divider
  /-- a switch, and what is attached to it -/
  | switch (switch : Switch) (attached : Attached)
  /-- a switch that is not known -/
  | stranger
  deriving DecidableEq, Repr, Inhabited

namespace Word

/-- The text before the first `=`, and the text after it. -/
def splitEquals? (text : List Char) : Option (String × String) :=
  match text.dropWhile (· ≠ '=') with
  | _ :: rest => some (String.ofList (text.takeWhile (· ≠ '=')), String.ofList rest)
  | [] => none

/-- Is this a minus and a number, rather than a switch? -/
def isNegative (text : List Char) : Bool :=
  match text with
  | '-' :: digits =>
    match digits.dropWhile Char.isDigit with
    | [] => !digits.isEmpty
    | '.' :: fraction => !fraction.isEmpty && fraction.all Char.isDigit
    | _ => false
  | _ => false

/-- The words that a shortened name or a run of short switches can mean. -/
def candidates (switches : Switches) (text : List Char) : List Word :=
  match text with
  | '-' :: '-' :: _ =>
    let (start, attached) : String × Attached :=
      match splitEquals? text with
      | some (start, value) => (start, .value value)
      | none => (String.ofList text, .nothing)
    (switches.filter fun (name, _) => start.toList.isPrefixOf name.toList).map
      fun (_, s) => .switch s attached
  | '-' :: letter :: rest =>
    (switches.filter fun (name, _) => name.toList = ['-', letter]).map
      fun (_, s) => .switch s (.more rest)
  | _ => []

/-- A switch that is named in full, with or without a value attached to it. -/
def inFull? (switches : Switches) (text : String) : Option Word :=
  match switches.lookup text with
  | some s => some (.switch s .nothing)
  | none => do
    let (name, value) ← splitEquals? text.toList
    let s ← switches.lookup name
    return .switch s (.value value)

/-- Read one argument. A shortened name that can mean several switches is an error. -/
def ofText (switches : Switches) (text : String) : Except Exit Word :=
  match text.toList with
  | '-' :: _ :: _ =>
    match inFull? switches text with
    | some word => .ok word
    | none =>
      match candidates switches text.toList with
      | [word] => .ok word
      | _ :: _ => .error .misuse
      | [] =>
        if isNegative text.toList || text.toList.contains ' ' then .ok (.plain text)
        else .ok .stranger
  | _ => .ok (.plain text)

/-- Read all arguments. -/
def ofTexts (switches : Switches) : List String → Except Exit (List Word)
  | [] => .ok []
  | text :: rest =>
    if text = "--" then .ok (.divider :: rest.map .plain)
    else do return (← ofText switches text) :: (← ofTexts switches rest)

/-- Short switches that are written together, of which the first is known: the known ones up to the first
that is not, and whether there is such a one. -/
def together (switches : Switches) (first : Switch) :
    List Char → Except Exit (List Switch × Bool)
  | [] => .ok ([first], false)
  | letter :: rest =>
    if letter = '-' || letter = '=' then
      .error .misuse
    else
      match switches.lookup (String.ofList ['-', letter]) with
      | some next => do
        let (known, strangers) ← together switches next rest
        return (first :: known, strangers)
      | none => .ok ([first], true)

/-- The switches of one word, none of which takes a value, and whether there is an unknown one. -/
def flags (switches : Switches) (s : Switch) : Attached → Except Exit (List Switch × Bool)
  | .nothing => .ok ([s], false)
  | .value _ => .error .misuse
  | .more letters => together switches s letters

end Word

/-! ## After the task -/

/-- What follows the task. -/
structure Details where
  /-- where it is to be done -/
  root : String := "."
  /-- is the place for the root taken -/
  placed : Bool := false
  /-- how problems are written -/
  format : Format := .text
  /-- was there something that has no place -/
  strangers : Bool := false
  deriving DecidableEq, Repr, Inhabited

namespace Details

/-- Use a text as the root; there is only one. -/
def place (details : Details) (root : String) : Details :=
  if details.placed then { details with strangers := true }
  else { details with root, placed := true }

/-- Use a word as the format. -/
def setFormat (details : Details) (word : String) : Except Exit Details :=
  if word = "text" then .ok { details with format := .text }
  else if word = "json" then .ok { details with format := .json }
  else .error .misuse

/-- Read what follows the task. -/
def read (switches : Switches) : Details → List Word → Except Exit Details
  | details, [] => .ok details
  | details, .stranger :: rest => read switches { details with strangers := true } rest
  | details, .plain text :: .divider :: rest =>
    read switches
      (if details.placed then { details with strangers := true } else details.place text) rest
  | details, .plain text :: rest => read switches (details.place text) rest
  | details, .divider :: .plain text :: rest => read switches (details.place text) rest
  | details, .divider :: rest =>
    read switches (if details.placed then { details with strangers := true } else details) rest
  | details, .switch .format (.value value) :: rest => do
    read switches (← details.setFormat value) rest
  | details, .switch .format _ :: .plain value :: rest => do
    read switches (← details.setFormat value) rest
  | _, .switch .format _ :: _ => .error .misuse
  | details, .switch s attached :: rest => do
    let (known, strangers) ← Word.flags switches s attached
    if known.contains .help then .error .help
    else read switches { details with strangers := details.strangers || strangers } rest

end Details

/-! ## All arguments -/

/-- The switches before the task. -/
def outerSwitches : Switches :=
  [("-h", .help), ("--help", .help), ("-v", .verbose), ("--verbose", .verbose)]

/-- The switches after `check`. -/
def checkSwitches : Switches :=
  [("-h", .help), ("--help", .help), ("--format", .format)]

/-- The switches after `fix`. -/
def fixSwitches : Switches :=
  [("-h", .help), ("--help", .help)]

/-- Read a task and what follows it. -/
def readTask (name : String) (texts : List String) : Except Exit (Task × Details) :=
  if name = "check" then do
    let details ← Details.read checkSwitches {} (← Word.ofTexts checkSwitches texts)
    return (.check details.format, details)
  else if name = "fix" then do
    let details ← Details.read fixSwitches {} (← Word.ofTexts fixSwitches texts)
    return (.fix, details)
  else
    .error .misuse

/-- Read arguments, each with its text. -/
def readOuter (verbose strangers : Bool) : List (Word × String) → Except Exit Arguments
  | [] => .error .misuse
  | (.plain name, _) :: rest => do
    let (task, details) ← readTask name (rest.map (·.2))
    if strangers || details.strangers then .error .misuse
    else .ok ⟨verbose, task, details.root⟩
  | (.divider, _) :: _ => .error .misuse
  | (.stranger, _) :: rest => readOuter verbose true rest
  | (.switch s attached, _) :: rest => do
    let (known, more) ← Word.flags outerSwitches s attached
    if known.contains .help then .error .help else readOuter true (strangers || more) rest

/-- Read the arguments of the command line. -/
def Arguments.ofTexts (texts : List String) : Except Exit Arguments := do
  readOuter false false ((← Word.ofTexts outerSwitches texts).zip texts)

end LoggerLint.Command
