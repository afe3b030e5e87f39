import LoggerLint.Command.Run
import LoggerLint.Script.Program

/-!
# The program

The outermost layer: it loads the files of a project into a tree, runs the task on it, writes back the files
that changed, and prints. Directories that are never entered are loaded empty.
-/

namespace LoggerLint

/-- The content of a file. -/
def Program.bytesOf (content : ByteArray) : Bytes :=
  content.toList

/-- Load what a name in a directory stands for. A link that leads nowhere is loaded as a link to itself. -/
partial def Program.load (entry : IO.FS.DirEntry) : IO (String × FileTree) := do
  let tree ←
    match (← entry.path.symlinkMetadata).type with
    | .dir =>
      if skippedDirectories.contains entry.fileName then
        pure (.directory [])
      else
        pure (.directory (← (← entry.path.readDir).toList.mapM load))
    | .symlink =>
      let target ← try IO.FS.realPath entry.path catch _ => pure entry.path
      pure (.link (.ofString target.toString))
    | _ => pure (.file (bytesOf (← IO.FS.readBinFile entry.path)))
  return (entry.fileName, tree)

/-- Load the file to which a link at the root leads, so that it can be followed. -/
def Program.loadTarget (tree : FileTree) (entry : String × FileTree) : IO FileTree := do
  match entry with
  | (name, .link target) =>
    if name = ignoreFileName || name = Config.fileName then
      try
        let content ← IO.FS.readBinFile target.toString
        return .put (.file (bytesOf content)) target.parts tree
      catch _ =>
        return tree
    else
      return tree
  | _ => return tree

/-- Load a project whose root is given by its parts. -/
def Program.loadProject (root : Path) : IO FileTree := do
  let directory := (← IO.currentDir) / root.toString
  if ← directory.isDir then
    let entries ← (← directory.readDir).toList.mapM load
    entries.foldlM loadTarget (.put (.directory entries) root.parts (.directory []))
  else
    return .directory []

/-- Write the files that changed. -/
def Program.store (before after : FileTree) : IO Unit := do
  let old := before.files
  for (path, content) in after.files do
    if old.lookup path ≠ some content then
      IO.FS.writeBinFile (Path.toString ⟨1, path⟩) ⟨content.toArray⟩

/-- What is printed when a run ends at once. -/
def Command.Crash.message : Command.Crash → String
  | .config _ => "error: the configuration cannot be read\n"
  | .ignoreFile _ => "error: an ignore file cannot be read\n"
  | .circularLinks => "error: links lead in a circle\n"
  | .unreadable _ => "error: a source file cannot be read\n"
  | .edit _ => "error: a fix cannot be applied\n"
  | .unwritableReport => "error: a report cannot be written\n"

/-- What is printed when nothing is done. -/
def Command.usage : String :=
  "usage: loggerlint [-h] [-v] (check [--format text|json] | fix) [root]\n"

end LoggerLint

open LoggerLint in
/-- Run the program. -/
def main (texts : List String) : IO UInt32 := do
  match Command.Arguments.ofTexts texts with
  | .error exit =>
    (← if exit = .help then IO.getStdout else IO.getStderr).putStr Command.usage
    return exit.code.toUInt32
  | .ok arguments =>
    let working := Path.ofString (← IO.currentDir).toString
    let asked := (working.join (.ofString arguments.root)).toString
    let root ← try pure (← IO.FS.realPath asked).toString catch _ => pure asked
    let arguments := { arguments with root }
    let tree ← Program.loadProject (.ofString root)
    let run := Command.run Script.parse tree working arguments
    Program.store tree run.tree
    (← IO.getStdout).putStr run.out
    (← IO.getStderr).putStr run.err
    match run.result with
    | .ok code => return code.toUInt32
    | .error crash =>
      (← IO.getStderr).putStr crash.message
      return 1
