/-!
# Refused TOML documents

A document that breaks the rules of TOML is malformed, wherever and however it does so. One that keeps them
can still hold an integer that nobody reads.
-/

namespace LoggerLint.Toml

/-- Why a document is refused. -/
inductive Error where
  /-- it is not TOML -/
  | malformed
  /-- an integer is too long to be read -/
  | tooManyDigits
  deriving DecidableEq, Repr, Inhabited

end LoggerLint.Toml
