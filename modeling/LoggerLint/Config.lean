import LoggerLint.Data.Checked

/-!
# Configuration

What a project can choose: which files are looked at, and which names are ambient globals. Only the
names listed here may be set.
-/

namespace LoggerLint

/-- The configuration of a project. -/
structure Config where
  /-- patterns for the files to look at; none mean all -/
  includes : List String := []
  /-- patterns for files to leave out -/
  excludes : List String := []
  /-- the extensions of source files, with their dots -/
  extensions : List String := [".js", ".jsx", ".mjs", ".cjs"]
  /-- the names of ambient globals -/
  globals : List String := []
  /-- do ignore files below the project's root count -/
  nestedGitignore : Bool := false
  deriving DecidableEq, Repr, Inhabited

/-- Why data is no configuration. -/
inductive ConfigFault where
  /-- the extensions are no list of texts -/
  | extensionsNotStrings
  /-- these are its problems -/
  | invalid (problems : List Problem)
  deriving DecidableEq, Repr, Inhabited

namespace ConfigFault

/-- What is said when the extensions are no list of texts. -/
def extensionsMessage : String := "extensions must be a list of strings"

end ConfigFault

namespace Config

/-- Can this be an extension: a dot with something behind it? -/
def isExtension (text : String) : Bool :=
  match text.toList with
  | '.' :: _ :: _ => true
  | _ => false

/-- Read extensions one after another, up to the first that is wrong. -/
def extensionList : List Value → Except ConfigFault (Checked (List String))
  | [] => .ok (.valid [])
  | .string text :: rest =>
    if isExtension text then (extensionList rest).map (List.cons text <$> ·)
    else .ok (.fault (.badExtension text))
  | _ :: _ => .error .extensionsNotStrings

/-- Read the extensions; nothing means the usual ones. -/
def extensionsOf (entries : Entries) : Except ConfigFault (Checked (List String)) :=
  match entries.lookup "extensions" with
  | none | some .null => .ok (.valid ({} : Config).extensions)
  | some (.array items) => (extensionList items).map (.within (.key "extensions"))
  | some _ => .error .extensionsNotStrings

/-- The names that can be set. -/
def names : List String :=
  ["include", "exclude", "extensions", "globals", "nested_gitignore"]

/-- Read a configuration from data. Extensions that are no list of texts end the reading at once; of
everything else all problems are found. -/
def ofValue (value : Value) : Except ConfigFault Config :=
  match value with
  | .table entries => do
    let extensions ← extensionsOf entries
    let texts (name : String) : Checked (List String) :=
      Entries.optional entries name [] (Value.asList Value.asString)
    let config := Config.mk <$> texts "include" <*> texts "exclude" <*> extensions <*>
      texts "globals" <*> Entries.optional entries "nested_gitignore" false Value.asBool
    match config <* Entries.noOthers entries names with
    | .valid config => .ok config
    | .invalid problems => .error (.invalid problems)
  | _ => .error (.invalid [⟨[], .notTable "ConsoleFixConfig"⟩])

end Config

end LoggerLint
