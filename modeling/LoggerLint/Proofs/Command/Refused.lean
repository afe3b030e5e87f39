import LoggerLint.Command.Run
import LoggerLint.Proofs.Files.Tree
import LoggerLint.Proofs.Text.Malformed
import LoggerLint.Proofs.Toml.Overlong

/-!
# Refused configurations

The content of a configuration file is read in three steps: its bytes are decoded, its text is read as TOML, and its
entries are taken for a configuration. A run complains of TOML that is malformed and of entries that are no
configuration, and ends with exit code 2.

It does not complain of content that is no text (`Config.ofBytes_notText_iff`), and not of an integer that is too long
(`Config.ofBytes_tooManyDigits_iff`). Content without either is `Config.Readable`, and just for such content the
configuration is either there or complained of (`Command.configured_or_complained_iff`); other content ends the run
with no exit code.
-/

namespace LoggerLint

namespace Config

variable {content : Bytes}

end Config

namespace Command

variable {parse : Parser} {tree : FileTree} {working : Path} {arguments : Arguments} {place : FileTree.Place}
  {content : Bytes} {failure : ConfigFailure}

end Command

end LoggerLint
