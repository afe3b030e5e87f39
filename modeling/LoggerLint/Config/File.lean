import LoggerLint.Config
import LoggerLint.Text.Utf8
import LoggerLint.Toml.Parse

/-!
# Configuration files

A configuration file holds a TOML document in UTF-8. There are several ways for it to be refused, and only
some of them are complaints about the configuration.
-/

namespace LoggerLint

/-- Why a configuration file is refused. -/
inductive ConfigFailure where
  /-- it is no text -/
  | notText
  /-- an integer in it is too long to be read -/
  | tooManyDigits
  /-- it is no TOML -/
  | notToml
  /-- what it says is no configuration -/
  | invalid (fault : ConfigFault)
  deriving DecidableEq, Repr, Inhabited

namespace Config

/-- The name of the configuration file. -/
def fileName : String := "consolefix.toml"

/-- Read the content of a configuration file. -/
def ofBytes (content : Bytes) : Except ConfigFailure Config :=
  match Utf8.decode content with
  | .error _ => .error .notText
  | .ok text =>
    match Toml.parse text with
    | .error .malformed => .error .notToml
    | .error .tooManyDigits => .error .tooManyDigits
    | .ok entries => (ofValue (.table entries)).mapError .invalid

end Config

end LoggerLint
